import HuaDB.DatabaseEngine
import HuaDB.TableRows

/-!
What the operations of a process do to one table.

`Grows` says once what an operation other than a rollback does: at most one row is new
or marked as deleted, the transaction that did it logs it, and the list of pages gets
longer by one page at most. Two invariants follow: the records of the active
transactions are at linked pages (`TableOk`), and no two of those transactions wrote the
same row (`RowsOk`).
-/

namespace HuaDB

open LinkedList (Segment)
open Table (newPageId lt_newPageId newPageId_not_mem)

/-! ## One operation -/

/-- What an operation other than a rollback adds to the records of a transaction: all
but one that creates the next page are at pages that were there, and those of the
transaction that did it tell of its change. -/
structure Appends (oid : Nat) (pages pages' : List Nat) (writer : Nat) (change : RowChange)
    (rows' : RowMap) (σ σ' : Engine) (xid : Nat) (old new : List LogRecord) : Prop where
  eq : transactionLog σ'.appended xid = old ++ new
  old : old = [] ∧ σ.txn.nextXid ≤ xid ∧ xid < σ'.txn.nextXid ∨
    (σ.log.att.find? xid).isSome ∧ old = transactionLog σ.appended xid
  placed : ∀ r ∈ new, r.Placed oid pages' rows'
  created : createdPages oid new = [] ∨ xid = writer ∧ createdPages oid new = [newPageId pages]
  quiet : xid ≠ writer → ∀ r ∈ new, ∀ rid, ¬ r.body.Names oid rid
  logged : xid = writer → change.Logged oid (new.map LogRecord.body)

/-- What a record that an operation adds says of a row is what the operation did. -/
theorem Appends.change_of_names {oid : Nat} {pages pages' : List Nat} {writer : Nat}
    {change : RowChange} {rows' : RowMap} {σ σ' : Engine} {xid : Nat} {old new : List LogRecord}
    (h : Appends oid pages pages' writer change rows' σ σ' xid old new) {r : LogRecord} (hr : r ∈ new)
    {rid : Rid} (hnames : r.body.Names oid rid) :
    xid = writer ∧ (r.body.Inserts oid rid → ∃ stored, change = .insert rid stored) ∧
      (r.body.Deletes oid rid → change = .delete rid) := by
  have hwriter : xid = writer := by
    by_contra hne
    exact h.quiet hne r hr rid hnames
  have hmem := List.mem_map_of_mem (f := LogRecord.body) hr
  exact ⟨hwriter, (h.logged hwriter).inserts _ hmem rid, (h.logged hwriter).deletes _ hmem rid⟩

/-- What an operation other than a rollback does to a table. -/
structure Grows (dbOid oid : Nat) (pages pages' : List Nat) (writer : Nat) (change : RowChange)
    (σ σ' : Engine) : Prop where
  log : ChainOk σ'
  small : σ'.log.nextLsn < 2 ^ 32
  active : ∀ xid, (σ'.txn.xid2cid.find? xid).isSome → (σ'.log.att.find? xid).isSome
  cached : Cached dbOid oid σ'
  database : σ'.catalog.currentDatabaseOid = dbOid
  chain : σ'.Pages dbOid oid pages'
  sub : pages ⊆ pages'
  nextXid : σ.txn.nextXid ≤ σ'.txn.nextXid
  rows : ∀ rid, σ'.rows dbOid oid pages' rid = change.apply writer (σ.rows dbOid oid pages) rid
  fits : change.Fits writer (σ.rows dbOid oid pages)
  writes : change = .none ∨ (σ.log.att.find? writer).isSome
  /-- The row that is deleted is locked. -/
  locked : ∀ rid, change = .delete rid → ∀ xid, xid ≠ writer → (σ.log.att.find? xid).isSome →
    ∀ r ∈ transactionLog σ.appended xid, ¬ r.body.Names oid rid
  appends : ∀ xid, (σ'.log.att.find? xid).isSome →
    ∃ old new, Appends oid pages pages' writer change (σ'.rows dbOid oid pages') σ σ' xid old new

/-! ## The pages and the log -/

/-- How the log and the pages of a table belong together. -/
structure TableOk (dbOid oid : Nat) (pages : List Nat) (σ : Engine) : Prop where
  log : ChainOk σ
  small : σ.log.nextLsn < 2 ^ 32
  active : ∀ xid, (σ.txn.xid2cid.find? xid).isSome → (σ.log.att.find? xid).isSome
  cached : Cached dbOid oid σ
  database : σ.catalog.currentDatabaseOid = dbOid
  chain : σ.Pages dbOid oid pages
  records : ∀ xid, (σ.log.att.find? xid).isSome → ∀ r ∈ transactionLog σ.appended xid,
    r.Placed oid pages (σ.rows dbOid oid pages)
  created : ∀ xid, (σ.log.att.find? xid).isSome →
    (createdPages oid (transactionLog σ.appended xid)).Pairwise (· < ·)
  apart : ∀ xid xid', xid ≠ xid' → (σ.log.att.find? xid).isSome → (σ.log.att.find? xid').isSome →
    ∀ p ∈ createdPages oid (transactionLog σ.appended xid),
      p ∉ createdPages oid (transactionLog σ.appended xid')

namespace TableOk

variable {dbOid oid : Nat} {pages pages' : List Nat} {writer : Nat} {change : RowChange}
  {σ σ' : Engine}

theorem getDatabaseOid (ok : TableOk dbOid oid pages σ) :
    σ.catalog.getDatabaseOid oid = .ok dbOid := by
  obtain ⟨table, hfind, -⟩ := ok.chain
  rw [SystemCatalog.getDatabaseOid, hfind, ← ok.database]
  rfl

/-- The pages that an active transaction created are linked. -/
theorem mem_of_created (ok : TableOk dbOid oid pages σ) {xid p : Nat}
    (hactive : (σ.log.att.find? xid).isSome)
    (hp : p ∈ createdPages oid (transactionLog σ.appended xid)) : p ∈ pages := by
  obtain ⟨r, hr, hcreates⟩ := List.mem_filterMap.mp hp
  have hplaced := ok.records xid hactive r hr
  unfold LogBody.creates? at hcreates
  split at hcreates
  · rename_i oid' prev p' hbody
    split at hcreates
    · rename_i hoid
      cases hcreates
      subst hoid
      exact (hplaced.created prev p hbody).1
    · cases hcreates
  · cases hcreates

theorem grow (ok : TableOk dbOid oid pages σ)
    (grows : Grows dbOid oid pages pages' writer change σ σ') : TableOk dbOid oid pages' σ' := by
  obtain ⟨table, -, -, pageChain⟩ := ok.chain
  have hgt : ∀ q ∈ pages, q < newPageId pages := fun q hq => lt_newPageId pageChain.sorted hq
  have keeps : ∀ rid stored, σ.rows dbOid oid pages rid = some stored →
      ∃ stored', σ'.rows dbOid oid pages' rid = some stored' ∧
        stored'.record.header.xmin = stored.record.header.xmin := by
    intro rid stored hrow
    rw [grows.rows]
    exact RowChange.apply_keeps grows.fits hrow
  have hold {xid : Nat} {old new : List LogRecord}
      (h : Appends oid pages pages' writer change (σ'.rows dbOid oid pages') σ σ' xid old new) {p : Nat}
      (hp : p ∈ createdPages oid old) : p ∈ pages := by
    rcases h.old with ⟨rfl, -⟩ | ⟨hactive, rfl⟩
    · cases hp
    · exact ok.mem_of_created hactive hp
  refine { log := grows.log, small := grows.small, active := grows.active, cached := grows.cached,
           database := grows.database, chain := grows.chain, records := fun xid hactive r hr => ?_,
           created := fun xid hactive => ?_, apart := fun xid xid' hne hactive hactive' p hp hp' => ?_ }
  · obtain ⟨old, new, h⟩ := grows.appends xid hactive
    rw [h.eq] at hr
    rcases List.mem_append.mp hr with hr | hr
    · rcases h.old with ⟨rfl, -⟩ | ⟨hactive', rfl⟩
      · cases hr
      · exact (ok.records xid hactive' r hr).mono grows.sub keeps
    · exact h.placed r hr
  · obtain ⟨old, new, h⟩ := grows.appends xid hactive
    rw [h.eq, createdPages_append]
    have hsorted : (createdPages oid old).Pairwise (· < ·) := by
      rcases h.old with ⟨rfl, -⟩ | ⟨hactive', rfl⟩
      · exact .nil
      · exact ok.created xid hactive'
    rcases h.created with hnil | ⟨-, hnew⟩
    · rw [hnil, List.append_nil]
      exact hsorted
    · rw [hnew]
      refine List.pairwise_append.mpr ⟨hsorted, List.pairwise_singleton _ _, fun p hp q hq => ?_⟩
      rw [List.mem_singleton.mp hq]
      exact hgt p (hold h hp)
  · obtain ⟨old, new, h⟩ := grows.appends xid hactive
    obtain ⟨old', new', h'⟩ := grows.appends xid' hactive'
    rw [h.eq, createdPages_append] at hp
    rw [h'.eq, createdPages_append] at hp'
    have hnew {xid : Nat} {old new : List LogRecord}
        (h : Appends oid pages pages' writer change (σ'.rows dbOid oid pages') σ σ' xid old new)
        (hp : p ∈ createdPages oid new) : xid = writer ∧ p ∉ pages := by
      rcases h.created with hnil | ⟨hwriter, hnew⟩
      · rw [hnil] at hp
        cases hp
      · rw [hnew] at hp
        rw [List.mem_singleton.mp hp]
        exact ⟨hwriter, newPageId_not_mem pageChain.sorted⟩
    rcases List.mem_append.mp hp with hp | hp
    · rcases List.mem_append.mp hp' with hp' | hp'
      · rcases h.old with ⟨rfl, -⟩ | ⟨hold₁, rfl⟩
        · cases hp
        · rcases h'.old with ⟨rfl, -⟩ | ⟨hold₂, rfl⟩
          · cases hp'
          · exact ok.apart xid xid' hne hold₁ hold₂ p hp hp'
      · exact (hnew h' hp').2 (hold h hp)
    · rcases List.mem_append.mp hp' with hp' | hp'
      · exact (hnew h hp).2 (hold h' hp')
      · exact hne ((hnew h hp).1.trans (hnew h' hp').1.symm)

end TableOk

/-! ## The rows and the log -/

/-- The first that a transaction did to a row was to insert it. -/
def FirstInserts (oid : Nat) (rid : Rid) (records : List LogRecord) : Prop :=
  ∃ before r after, records = before ++ r :: after ∧ r.body.Inserts oid rid ∧
    ∀ r' ∈ before, ¬ r'.body.Deletes oid rid

theorem FirstInserts.append {oid : Nat} {rid : Rid} {records : List LogRecord}
    (h : FirstInserts oid rid records) (new : List LogRecord) :
    FirstInserts oid rid (records ++ new) := by
  obtain ⟨before, r, after, rfl, hins, hbefore⟩ := h
  exact ⟨before, r, after ++ new, by simp, hins, hbefore⟩

/-- How the log and the rows of a table belong together: what an active transaction
inserted or deleted is in its records, and no other active one touched it. -/
structure RowsOk (dbOid oid : Nat) (pages : List Nat) (σ : Engine) : Prop where
  first : firstXid ≤ σ.txn.nextXid
  xids : ∀ xid, (σ.log.att.find? xid).isSome → xid < σ.txn.nextXid
  born : ∀ rid stored, σ.rows dbOid oid pages rid = some stored →
    stored.record.header.xmin < σ.txn.nextXid ∧
      (stored.record.header.xmax = nullXid ∨ stored.record.header.xmax < σ.txn.nextXid)
  inserted : ∀ rid stored, σ.rows dbOid oid pages rid = some stored →
    (σ.log.att.find? stored.record.header.xmin).isSome →
      FirstInserts oid rid (transactionLog σ.appended stored.record.header.xmin)
  deleted : ∀ xid, (σ.log.att.find? xid).isSome → ∀ r ∈ transactionLog σ.appended xid,
    ∀ rid stored, r.body.Deletes oid rid → σ.rows dbOid oid pages rid = some stored →
      stored.record.header.xmax = xid
  deleter : ∀ rid stored, σ.rows dbOid oid pages rid = some stored →
    (σ.log.att.find? stored.record.header.xmax).isSome →
      ∃ r ∈ transactionLog σ.appended stored.record.header.xmax, r.body.Deletes oid rid
  locked : ∀ xid xid', xid ≠ xid' → (σ.log.att.find? xid).isSome → (σ.log.att.find? xid').isSome →
    ∀ r ∈ transactionLog σ.appended xid, ∀ r' ∈ transactionLog σ.appended xid', ∀ rid,
      r.body.Names oid rid → ¬ r'.body.Names oid rid

namespace RowsOk

variable {dbOid oid : Nat} {pages pages' : List Nat} {writer : Nat} {change : RowChange}
  {σ σ' : Engine}

/-- What a new record tells of is a row that no other active transaction touched. -/
theorem not_names_of_new (table : TableOk dbOid oid pages σ)
    (grows : Grows dbOid oid pages pages' writer change σ σ') {xid xid' : Nat}
    {old new : List LogRecord}
    (h : Appends oid pages pages' writer change (σ'.rows dbOid oid pages') σ σ' xid old new)
    {r r' : LogRecord} (hr : r ∈ new) {rid : Rid} (hnames : r.body.Names oid rid)
    (hactive : (σ.log.att.find? xid').isSome) (hr' : r' ∈ transactionLog σ.appended xid')
    (hne : xid' ≠ xid) : ¬ r'.body.Names oid rid := by
  intro hnames'
  obtain ⟨rfl, hinserts, hdeletes⟩ := h.change_of_names hr hnames
  rcases hnames with hins | hdel
  · obtain ⟨stored, rfl⟩ := hinserts hins
    obtain ⟨stored', hrow⟩ := (table.records xid' hactive r' hr').exists_row hnames'
    cases grows.fits.1.symm.trans hrow
  · have hchange := hdeletes hdel
    exact grows.locked rid hchange xid' hne hactive r' hr' hnames'

/-- The rows of a state come from those before. -/
theorem exists_old (grows : Grows dbOid oid pages pages' writer change σ σ') {rid : Rid}
    {stored' : StoredRecord} (hrow' : σ'.rows dbOid oid pages' rid = some stored') :
    (change = .insert rid stored' ∧ stored'.record.header.xmin = writer ∧
      stored'.record.header.xmax = nullXid) ∨
    ∃ stored, σ.rows dbOid oid pages rid = some stored ∧
      (change = .delete rid ∧ stored' = stored.mapHeader (RecordHeader.deletedBy writer) ∨
        change ≠ .delete rid ∧ stored' = stored) := by
  have hrows := grows.rows rid
  have fits := grows.fits
  rw [hrow'] at hrows
  cases change with
  | none => exact .inr ⟨stored', hrows.symm, .inr ⟨RowChange.noConfusion, rfl⟩⟩
  | insert rid' stored =>
      by_cases hrid : rid = rid'
      · subst hrid
        have heq : some stored' = some stored := hrows.trans (if_pos rfl)
        cases heq
        exact .inl ⟨rfl, fits.2⟩
      · exact .inr ⟨stored', (hrows.trans (if_neg hrid)).symm, .inr ⟨RowChange.noConfusion, rfl⟩⟩
  | delete rid' =>
      by_cases hrid : rid = rid'
      · subst hrid
        obtain ⟨stored, hrow, heq⟩ := Option.map_eq_some_iff.mp (hrows.trans (if_pos rfl)).symm
        exact .inr ⟨stored, hrow, .inl ⟨rfl, heq.symm⟩⟩
      · refine .inr ⟨stored', (hrows.trans (if_neg hrid)).symm, .inr ⟨fun h => hrid ?_, rfl⟩⟩
        cases h
        rfl

theorem grow (ok : RowsOk dbOid oid pages σ) (table : TableOk dbOid oid pages σ)
    (grows : Grows dbOid oid pages pages' writer change σ σ') : RowsOk dbOid oid pages' σ' := by
  have hwriter (hne : change ≠ .none) : writer < σ'.txn.nextXid :=
    Nat.lt_of_lt_of_le (ok.xids writer (grows.writes.resolve_left hne)) grows.nextXid
  refine { first := Nat.le_trans ok.first grows.nextXid, xids := fun xid hactive => ?_,
           born := fun rid stored' hrow' => ?_, inserted := fun rid stored' hrow' hactive => ?_,
           deleted := fun xid hactive r hr rid stored' hdel hrow' => ?_,
           deleter := fun rid stored' hrow' hactive => ?_,
           locked := fun xid xid' hne hactive hactive' r hr r' hr' rid hnames hnames' => ?_ }
  · obtain ⟨old, new, h⟩ := grows.appends xid hactive
    rcases h.old with ⟨-, -, hlt⟩ | ⟨hactive', -⟩
    · exact hlt
    · exact Nat.lt_of_lt_of_le (ok.xids xid hactive') grows.nextXid
  · rcases exists_old grows hrow' with ⟨hchange, hxmin, hxmax⟩ | ⟨stored, hrow, h⟩
    · rw [hxmin]
      exact ⟨hwriter (by rw [hchange]; exact RowChange.noConfusion), .inl hxmax⟩
    · obtain ⟨hxmin, hxmax⟩ := ok.born rid stored hrow
      have hxmin' := Nat.lt_of_lt_of_le hxmin grows.nextXid
      rcases h with ⟨hchange, rfl⟩ | ⟨-, rfl⟩
      · exact ⟨hxmin', .inr (hwriter (by rw [hchange]; exact RowChange.noConfusion))⟩
      · exact ⟨hxmin', hxmax.imp id fun h => Nat.lt_of_lt_of_le h grows.nextXid⟩
  · obtain ⟨old, new, h⟩ := grows.appends _ hactive
    rw [h.eq]
    rcases exists_old grows hrow' with ⟨hchange, hxmin, -⟩ | ⟨stored, hrow, hstored⟩
    · -- a new row: no record of the transaction named its place before
      have logged := h.logged hxmin
      obtain ⟨body, hbody, hins⟩ := logged.inserted rid stored' hchange
      obtain ⟨r, hr, rfl⟩ := List.mem_map.mp hbody
      obtain ⟨before, after, rfl⟩ := List.append_of_mem hr
      refine ⟨old ++ before, r, after, by simp, hins, fun r' hr' hdel => ?_⟩
      rcases List.mem_append.mp hr' with hr' | hr'
      · rcases h.old with ⟨rfl, -⟩ | ⟨hactive', rfl⟩
        · cases hr'
        · obtain ⟨stored, hrow⟩ := (table.records _ hactive' r' hr').deleted rid hdel
          have fits := grows.fits
          rw [hchange] at fits
          cases fits.1.symm.trans hrow
      · have hmem := List.mem_map_of_mem (f := LogRecord.body)
          (List.mem_append_left (r :: after) hr')
        have hdelete := logged.deletes _ hmem rid hdel
        cases hchange.symm.trans hdelete
    · have hxmin : stored'.record.header.xmin = stored.record.header.xmin := by
        rcases hstored with ⟨-, rfl⟩ | ⟨-, rfl⟩ <;> rfl
      rcases h.old with ⟨-, hge, -⟩ | ⟨hactive', rfl⟩
      · have hlt := (ok.born rid stored hrow).1
        omega
      · rw [hxmin] at hactive' ⊢
        exact (ok.inserted rid stored hrow hactive').append new
  · obtain ⟨old, new, h⟩ := grows.appends xid hactive
    rw [h.eq] at hr
    rcases List.mem_append.mp hr with hr | hr
    · rcases h.old with ⟨rfl, -⟩ | ⟨hactive', rfl⟩
      · cases hr
      obtain ⟨stored, hrow⟩ := (table.records xid hactive' r hr).deleted rid hdel
      have hxmax := ok.deleted xid hactive' r hr rid stored hdel hrow
      rcases exists_old grows hrow' with ⟨hchange, -, -⟩ | ⟨stored₁, hrow₁, hstored⟩
      · have fits := grows.fits
        rw [hchange] at fits
        cases fits.1.symm.trans hrow
      cases hrow.symm.trans hrow₁
      rcases hstored with ⟨hchange, rfl⟩ | ⟨-, rfl⟩
      · -- the row is locked by the transaction that deleted it
        by_contra hne
        exact grows.locked rid hchange xid (Ne.symm hne) hactive' r hr (.inr hdel)
      · exact hxmax
    · obtain ⟨hwriter, -, hdeletes⟩ := h.change_of_names hr (.inr hdel)
      have hchange := hdeletes hdel
      rcases exists_old grows hrow' with ⟨hchange', -, -⟩ | ⟨stored, -, hstored⟩
      · cases hchange.symm.trans hchange'
      · rcases hstored with ⟨-, rfl⟩ | ⟨hne, -⟩
        · exact hwriter.symm
        · exact absurd hchange hne
  · obtain ⟨old, new, h⟩ := grows.appends _ hactive
    rw [h.eq]
    rcases exists_old grows hrow' with ⟨-, -, hxmax⟩ | ⟨stored, hrow, hstored⟩
    · rw [hxmax, grows.log.find?_nullXid] at hactive
      cases hactive
    · rcases hstored with ⟨hchange, rfl⟩ | ⟨-, rfl⟩
      · obtain ⟨body, hbody, hdel⟩ := (h.logged rfl).deleted rid hchange
        obtain ⟨r, hr, rfl⟩ := List.mem_map.mp hbody
        exact ⟨r, List.mem_append_right _ hr, hdel⟩
      · rcases h.old with ⟨-, hge, -⟩ | ⟨hactive', rfl⟩
        · rcases (ok.born rid _ hrow).2 with hnull | hlt
          · rw [hnull, grows.log.find?_nullXid] at hactive
            cases hactive
          · omega
        · obtain ⟨r, hr, hdel⟩ := ok.deleter rid _ hrow hactive'
          exact ⟨r, List.mem_append_left _ hr, hdel⟩
  · obtain ⟨old, new, h⟩ := grows.appends xid hactive
    obtain ⟨old', new', h'⟩ := grows.appends xid' hactive'
    rw [h.eq] at hr
    rw [h'.eq] at hr'
    rcases List.mem_append.mp hr with hr | hr
    · rcases h.old with ⟨rfl, -⟩ | ⟨hold, rfl⟩
      · cases hr
      rcases List.mem_append.mp hr' with hr' | hr'
      · rcases h'.old with ⟨rfl, -⟩ | ⟨hold', rfl⟩
        · cases hr'
        · exact ok.locked xid xid' hne hold hold' r hr r' hr' rid hnames hnames'
      · exact not_names_of_new table grows h' hr' hnames' hold hr hne hnames
    · rcases List.mem_append.mp hr' with hr' | hr'
      · rcases h'.old with ⟨rfl, -⟩ | ⟨hold', rfl⟩
        · cases hr'
        · exact not_names_of_new table grows h hr hnames hold' hr' (Ne.symm hne) hnames'
      · -- only one transaction writes
        exact hne ((h.change_of_names hr hnames).1.trans (h'.change_of_names hr' hnames').1.symm)

end RowsOk

/-! ## The records of an operation -/

namespace Logs

variable {xid : Nat} {bodies : List LogBody} {σ σ' : Engine}

/-- The records that an operation appends follow those of its transaction. -/
theorem transactionLog_eq (logs : Logs xid bodies σ σ') : ∃ records : List LogRecord,
    records.map LogRecord.body = bodies ∧ (∀ r ∈ records, r.xid = xid) ∧
      ∀ xid', transactionLog σ'.appended xid' =
        transactionLog σ.appended xid' ++ if xid' = xid then records else [] := by
  obtain ⟨records, happ, hmap⟩ := logs.appended
  have hbodies : records.map LogRecord.body = bodies := by
    have hsnd := congrArg (List.map Prod.snd) hmap
    simpa [Function.comp_def] using hsnd
  have hpair (r : LogRecord) (hr : r ∈ records) : ∃ body ∈ bodies, (xid, body) = (r.xid, r.body) := by
    have hmem : (r.xid, r.body) ∈ bodies.map (xid, ·) :=
      hmap ▸ List.mem_map_of_mem (f := fun r : LogRecord => (r.xid, r.body)) hr
    exact List.mem_map.mp hmem
  have hxid (r : LogRecord) (hr : r ∈ records) : r.xid = xid := by
    obtain ⟨_, -, heq⟩ := hpair r hr
    exact (Prod.mk.inj heq).1.symm
  refine ⟨records, hbodies, hxid, fun xid' => ?_⟩
  rw [happ, transactionLog_append]
  · by_cases heq : xid' = xid
    · subst heq
      rw [if_pos rfl, List.filter_eq_self.mpr fun r hr => decide_eq_true (hxid r hr)]
    · rw [if_neg heq, List.filter_eq_nil_iff.mpr fun r hr h =>
        heq ((of_decide_eq_true h).symm.trans (hxid r hr))]
  · intro r hr _ htype
    obtain ⟨body, hbody, heq⟩ := hpair r hr
    have hon := logs.onPage body hbody
    rw [(Prod.mk.inj heq).2] at hon
    unfold LogRecord.getType at htype
    unfold LogBody.OnPage at hon
    split at hon <;> rename_i hb <;> first | exact hon | (rw [hb] at htype; cases htype)

theorem active_iff (logs : Logs xid bodies σ σ') (xid' : Nat) :
    (σ'.log.att.find? xid').isSome ↔ (σ.log.att.find? xid').isSome := by
  obtain ⟨lsn, hatt⟩ := logs.att
  rw [hatt, Assoc.find?_insert]
  split
  · rename_i heq
    exact ⟨fun _ => heq ▸ logs.active, fun _ => rfl⟩
  · exact Iff.rfl

end Logs

/-! ## The end of a transaction -/

/-- What committing does, and rolling back once the records are undone: an end record
is flushed and the transaction is forgotten. -/
structure Ends (xid : Nat) (σ σ' : Engine) : Prop where
  log : ChainOk σ'
  appended : ∃ r, r.xid = xid ∧ r.getType ≠ .begin ∧ σ'.appended = σ.appended ++ [r]
  att : σ'.log.att = σ.log.att.erase xid
  xid2cid : σ'.txn.xid2cid = σ.txn.xid2cid.erase xid
  known : (σ.txn.xid2cid.find? xid).isSome
  nextXid : σ'.txn.nextXid = σ.txn.nextXid
  pool : σ'.pool = σ.pool
  files : σ'.disk.files = σ.disk.files
  catalog : σ'.catalog = σ.catalog

namespace Ends

variable {xid : Nat} {σ σ₁ σ' : Engine}

theorem of_run {body : LogBody} {caller caller' : String} {lsn : Nat} {txn : TransactionManager}
    (ok : ChainOk σ) (happend : LogManager.appendEndLog xid body caller σ = .ok lsn σ₁)
    (hbody : body = .commit ∨ body = .rollback) (hfinish : σ₁.txn.finish xid caller' = .ok txn)
    (range : σ₁.log.nextLsn ≤ nullLsn) : Ends xid σ { σ₁ with txn := txn } := by
  obtain ⟨lastLsn, hfind, rfl⟩ := LogOp.eq_ended happend
  obtain ⟨hknown, hnext, hxid2cid⟩ := TransactionManager.finish_eq_ok hfinish
  have htxn : (LogOp.ended σ xid lastLsn body).txn = σ.txn := Engine.flushLog_txn _ _
  rw [htxn] at hknown hnext hxid2cid
  have ending := ok.ending hfind range fun h => by
    rcases hbody with rfl | rfl <;> exact fun _ => h
  refine { log := (ending.flushLog _).congr rfl rfl rfl rfl rfl rfl,
           appended := ⟨σ.nextRecord xid lastLsn body, rfl, ?_, ?_⟩, att := Engine.flushLog_att _ _,
           xid2cid := hxid2cid, known := Assoc.mem_keys_iff.mp hknown, nextXid := hnext,
           pool := Engine.flushLog_pool _ _,
           files := Engine.flushLog_files _ _, catalog := Engine.flushLog_catalog _ _ }
  · rcases hbody with rfl | rfl <;> exact LogType.noConfusion
  · have happ := ending.appended_flushLog σ.log.nextLsn
    rw [σ.appended_appendedWith] at happ
    exact happ

/-- The other transactions are as they were. -/
theorem transactionLog_eq (ends : Ends xid σ σ') {xid' : Nat}
    (hactive : (σ'.log.att.find? xid').isSome) :
    xid' ≠ xid ∧ (σ.log.att.find? xid').isSome ∧
      transactionLog σ'.appended xid' = transactionLog σ.appended xid' := by
  rw [ends.att, Assoc.find?_erase] at hactive
  split at hactive
  · cases hactive
  · rename_i hne
    obtain ⟨r, rfl, -, happ⟩ := ends.appended
    exact ⟨Ne.symm hne, hactive, by rw [happ, transactionLog_concat_ne _ hne]⟩

theorem active (ends : Ends xid σ σ')
    (h : ∀ x, (σ.txn.xid2cid.find? x).isSome → (σ.log.att.find? x).isSome) :
    ∀ x, (σ'.txn.xid2cid.find? x).isSome → (σ'.log.att.find? x).isSome := by
  intro x hx
  rw [ends.xid2cid, Assoc.find?_erase] at hx
  rw [ends.att, Assoc.find?_erase]
  split at hx
  · cases hx
  · rename_i hne
    rw [if_neg hne]
    exact h x hx

theorem view_eq (ends : Ends xid σ σ') (dbOid : Nat) (key : TablePageid) :
    σ'.view dbOid key = σ.view dbOid key :=
  Engine.view_congr (by rw [ends.pool]) (by rw [ends.pool]) ends.files dbOid key

end Ends

/-- What a checkpoint does: its records are of no transaction. -/
structure Saves (σ σ' : Engine) : Prop where
  log : ChainOk σ'
  appended : ∃ records, σ'.appended = σ.appended ++ records ∧ ∀ r ∈ records, r.xid = nullXid
  att : σ'.log.att = σ.log.att
  txn : σ'.txn = σ.txn
  pool : σ'.pool = σ.pool
  files : σ'.disk.files = σ.disk.files
  catalog : σ'.catalog = σ.catalog

theorem Saves.of_run {σ σ' : Engine} {lsn : Nat} (ok : ChainOk σ)
    (run : LogManager.checkpoint σ = .ok lsn σ') (range : σ'.log.nextLsn ≤ nullLsn) :
    Saves σ σ' := by
  rw [LogManager.checkpoint_eq] at run
  cases run
  have logged := ok.checkpointing range
  refine { log := (logged.flushLog _).congr rfl rfl rfl rfl rfl rfl,
           appended :=
          ⟨[σ.nextRecord nullXid nullLsn .beginCheckpoint, LogOp.endCheckpointRecord σ], ?_,
             by simp [Engine.nextRecord, LogOp.endCheckpointRecord]⟩,
           att := Engine.flushLog_att _ _, txn := Engine.flushLog_txn _ _,
           pool := Engine.flushLog_pool _ _, files := Engine.flushLog_files _ _,
           catalog := Engine.flushLog_catalog _ _ }
  refine (logged.appended_flushLog (σ.log.nextLsn + LogRecord.headerSize)).trans ?_
  have hend : σ.log.nextLsn + LogRecord.headerSize =
      (σ.nextRecord nullXid nullLsn .beginCheckpoint).endLsn := rfl
  simp [Engine.appended, LogManager.checkpointLogged, LogOp.endCheckpointRecord, hend, Engine.nextRecord]

/-! ## The operations -/

theorem Shows.rows_eq {dbOid oid : Nat} {pages : List Nat} {σ σ' : Engine}
    (shows' : Shows dbOid oid σ σ') (seen : ∀ p ∈ pages, ∃ page, σ.view dbOid ⟨oid, p⟩ = some page) :
    σ'.rows dbOid oid pages = σ.rows dbOid oid pages := by
  funext rid
  by_cases hp : rid.pageId ∈ pages
  · obtain ⟨page, hview⟩ := seen _ hp
    rw [Engine.rows_of_view hp hview, Engine.rows_of_view hp (shows' _ _ hview)]
  · rw [Engine.rows_of_not_mem hp, Engine.rows_of_not_mem hp]

/-- One page with another contents. -/
theorem Stores.rows_eq {dbOid oid p : Nat} {pages : List Nat} {page : TablePage} {σ σ' : Engine}
    (stores : Stores dbOid oid p page σ σ') (hp : p ∈ pages)
    (seen : ∀ p ∈ pages, ∃ page, σ.view dbOid ⟨oid, p⟩ = some page) (rid : Rid) :
    σ'.rows dbOid oid pages rid =
      if rid.pageId = p then page.slots rid.slotId else σ.rows dbOid oid pages rid := by
  by_cases hrid : rid.pageId = p
  · subst hrid
    rw [if_pos rfl, Engine.rows_of_view hp stores.1]
  · rw [if_neg hrid]
    by_cases hmem : rid.pageId ∈ pages
    · obtain ⟨page', hview⟩ := seen _ hmem
      rw [Engine.rows_of_view hmem hview, Engine.rows_of_view hmem (stores.2 _ _ hrid hview)]
    · rw [Engine.rows_of_not_mem hmem, Engine.rows_of_not_mem hmem]

namespace TableOk

variable {dbOid oid : Nat} {pages pages' : List Nat} {σ σ' : Engine}

theorem seen (ok : TableOk dbOid oid pages σ) :
    ∀ p ∈ pages, ∃ page, σ.view dbOid ⟨oid, p⟩ = some page := by
  intro p hp
  obtain ⟨page, hview, -⟩ := ok.chain.exists_view hp
  exact ⟨page, hview⟩

/-- An operation that does not change what is seen of the table. -/
theorem grows_of_shows (ok : TableOk dbOid oid pages σ) (log : ChainOk σ')
    (small : σ'.log.nextLsn < 2 ^ 32)
    (active : ∀ xid, (σ'.txn.xid2cid.find? xid).isSome → (σ'.log.att.find? xid).isSome)
    (cached : Cached dbOid oid σ') (shows' : Shows dbOid oid σ σ')
    (hfind : σ'.catalog.oid2table.find? oid = σ.catalog.oid2table.find? oid)
    (hdb : σ'.catalog.currentDatabaseOid = σ.catalog.currentDatabaseOid)
    (hnext : σ.txn.nextXid ≤ σ'.txn.nextXid)
    (appends : ∀ xid, (σ'.log.att.find? xid).isSome → ∃ old new,
      transactionLog σ'.appended xid = old ++ new ∧
      (old = [] ∧ σ.txn.nextXid ≤ xid ∧ xid < σ'.txn.nextXid ∨
        (σ.log.att.find? xid).isSome ∧ old = transactionLog σ.appended xid) ∧
      ∀ r ∈ new, r.body.Off oid) : Grows dbOid oid pages pages 0 .none σ σ' := by
  obtain ⟨table, htable, hdbOid, chain⟩ := ok.chain
  refine { log, small, active, cached, database := hdb.trans ok.database,
           chain := ⟨table, hfind.trans htable, hdbOid, chain.of_shows shows'⟩,
           sub := List.Subset.refl _, nextXid := hnext,
           rows := fun rid => by rw [shows'.rows_eq ok.seen]; rfl, fits := trivial,
           writes := .inl rfl, locked := fun _ h => RowChange.noConfusion h,
           appends := fun xid hactive => ?_ }
  obtain ⟨old, new, heq, hold, hoff⟩ := appends xid hactive
  have hquiet : ∀ r ∈ new, ∀ rid, ¬ r.body.Names oid rid := fun r hr rid =>
    LogBody.not_names_of_off (hoff r hr)
  refine ⟨old, new, heq, hold, fun r hr => .of_off (hoff r hr), .inl (createdPages_of_off hoff),
    fun _ => hquiet, fun _ => .of_quiet fun body hbody => ?_⟩
  obtain ⟨r, hr, rfl⟩ := List.mem_map.mp hbody
  exact hquiet r hr

/-- What the buffer pool does by itself. -/
theorem grows_of_quiet (ok : TableOk dbOid oid pages σ) (quiet : Quiet σ σ')
    (cached : Cached dbOid oid σ') (shows' : Shows dbOid oid σ σ') :
    Grows dbOid oid pages pages 0 .none σ σ' := by
  obtain ⟨log, happ⟩ := quiet.log ok.log
  refine ok.grows_of_shows log (quiet.nextLsn ▸ ok.small) ?_ cached shows' (by rw [quiet.catalog])
    (by rw [quiet.catalog]) (by rw [quiet.txn]) fun xid hactive => ?_
  · rw [quiet.txn, quiet.att]
    exact ok.active
  · rw [quiet.find? xid] at hactive
    exact ⟨_, [], by rw [happ, List.append_nil], .inr ⟨hactive, rfl⟩,
      fun _ h => absurd h List.not_mem_nil⟩

theorem grows_begin (ok : TableOk dbOid oid pages σ) (hfirst : firstXid ≤ σ.txn.nextXid)
    (hlt : σ.txn.nextXid < nullXid) {xid : Nat} (run : DatabaseEngine.begin σ = .ok xid σ')
    (small : σ'.log.nextLsn < 2 ^ 32) : Grows dbOid oid pages pages 0 .none σ σ' := by
  obtain ⟨rfl, hnew, rfl⟩ := DatabaseEngine.begin_eq_ok run
  have hddl : σ.txn.nextXid ≠ ddlXid := Nat.ne_of_gt hfirst
  have hnext : σ.txn.begin.2.nextXid = σ.txn.nextXid + 1 :=
    Nat.mod_eq_of_lt (Nat.succ_lt_succ hlt)
  let r : LogRecord := σ.nextRecord σ.txn.nextXid nullLsn .begin
  have hatt : AttOk (σ.appended ++ [r]) (σ.log.att.insert σ.txn.nextXid σ.log.nextLsn) :=
    ok.log.att.insert (r := r) (Nat.ne_of_lt hlt) hddl
  have range : r.endLsn ≤ nullLsn := Nat.le_trans (Nat.le_of_lt small) (by decide)
  have log := ok.log.append σ.log.dpt range rfl hatt
  have happ := σ.appended_appendedWith σ.txn.nextXid nullLsn .begin
    (σ.log.att.insert σ.txn.nextXid σ.log.nextLsn) σ.log.dpt
  refine ok.grows_of_shows (log.congr rfl rfl rfl rfl rfl rfl) small (fun xid hxid => ?_)
    (ok.cached.congr rfl rfl) (fun _ _ hview => hview) rfl rfl ?_ fun xid hactive => ?_
  · change ((σ.txn.xid2cid.insert σ.txn.nextXid firstCid).find? xid).isSome at hxid
    change ((σ.log.att.insert σ.txn.nextXid σ.log.nextLsn).find? xid).isSome
    rw [Assoc.find?_insert] at hxid ⊢
    split at hxid
    · rename_i heq
      rw [if_pos heq]
      rfl
    · rename_i hne
      rw [if_neg hne]
      exact ok.active xid hxid
  · change σ.txn.nextXid ≤ σ.txn.begin.2.nextXid
    rw [hnext]
    exact Nat.le_succ _
  · change ((σ.log.att.insert σ.txn.nextXid σ.log.nextLsn).find? xid).isSome at hactive
    rw [Assoc.find?_insert] at hactive
    change ∃ old new, transactionLog (σ.appendedWith σ.txn.nextXid nullLsn .begin
      (σ.log.att.insert σ.txn.nextXid σ.log.nextLsn) σ.log.dpt).appended xid = old ++ new ∧
        (old = [] ∧ σ.txn.nextXid ≤ xid ∧ xid < σ.txn.begin.2.nextXid ∨ _) ∧ _
    rw [happ, transactionLog_concat, hnext]
    split at hactive
    · rename_i heq
      subst heq
      exact ⟨[], [r], if_pos rfl, .inl ⟨rfl, Nat.le_refl _, Nat.lt_succ_self _⟩,
        fun r' hr' => List.mem_singleton.mp hr' ▸ trivial⟩
    · rename_i hne
      exact ⟨transactionLog σ.appended xid, [], by rw [if_neg (by exact hne), List.append_nil],
        .inr ⟨hactive, rfl⟩, fun _ h => absurd h List.not_mem_nil⟩

theorem grows_commit (ok : TableOk dbOid oid pages σ) {xid : Nat}
    (run : DatabaseEngine.commit xid σ = .ok () σ') (small : σ'.log.nextLsn < 2 ^ 32) :
    Grows dbOid oid pages pages 0 .none σ σ' := by
  obtain ⟨lsn, σ₁, txn, happend, hfinish, rfl⟩ := DatabaseEngine.commit_eq_ok run
  have range : σ₁.log.nextLsn ≤ nullLsn := Nat.le_trans (Nat.le_of_lt small) (by decide)
  have ends := Ends.of_run ok.log happend (.inl rfl) hfinish range
  refine ok.grows_of_shows ends.log small (ends.active ok.active)
    (ok.cached.congr ends.pool ends.files) (fun _ _ hview => (ends.view_eq _ _).trans hview)
    (by rw [ends.catalog]) (by rw [ends.catalog]) (Nat.le_of_eq ends.nextXid.symm)
    fun xid' hactive => ?_
  obtain ⟨-, hactive', hlog⟩ := ends.transactionLog_eq hactive
  exact ⟨_, [], by rw [hlog, List.append_nil], .inr ⟨hactive', rfl⟩,
    fun _ h => absurd h List.not_mem_nil⟩

theorem grows_checkpoint (ok : TableOk dbOid oid pages σ) {lsn : Nat}
    (run : LogManager.checkpoint σ = .ok lsn σ') (small : σ'.log.nextLsn < 2 ^ 32) :
    Grows dbOid oid pages pages 0 .none σ σ' := by
  have saves := Saves.of_run ok.log run (Nat.le_trans (Nat.le_of_lt small) (by decide))
  refine ok.grows_of_shows saves.log small (by rw [saves.txn, saves.att]; exact ok.active)
    (ok.cached.congr saves.pool saves.files) (fun p page hview => ?_) (by rw [saves.catalog])
    (by rw [saves.catalog]) (by rw [saves.txn]) fun xid hactive => ?_
  · rw [Engine.view_congr (by rw [saves.pool]) (by rw [saves.pool]) saves.files]
    exact hview
  · rw [saves.att] at hactive
    obtain ⟨lsn, hfind⟩ := Option.isSome_iff_exists.mp hactive
    have hnull := (ok.log.att xid lsn hfind).1
    obtain ⟨records, happ, hrecords⟩ := saves.appended
    have hne (r : LogRecord) (hr : r ∈ records) : r.xid ≠ xid := fun h =>
      hnull (h.symm.trans (hrecords r hr))
    refine ⟨_, records.filter fun r => r.xid = xid, ?_, .inr ⟨hactive, rfl⟩, fun r hr => ?_⟩
    · rw [happ, transactionLog_append _ _ _ fun r hr hxid => absurd hxid (hne r hr)]
    · obtain ⟨hr, hxid⟩ := List.mem_filter.mp hr
      exact absurd (of_decide_eq_true hxid) (hne r hr)

/-- An insertion or a deletion. -/
theorem grows_of_logs (ok : TableOk dbOid oid pages σ) {xid : Nat} {bodies : List LogBody}
    {change : RowChange} (logs : Logs xid bodies σ σ') (small : σ'.log.nextLsn < 2 ^ 32)
    (cached : Cached dbOid oid σ') (database : σ'.catalog.currentDatabaseOid = dbOid)
    (chain : σ'.Pages dbOid oid pages') (hsub : pages ⊆ pages')
    (rows : ∀ rid, σ'.rows dbOid oid pages' rid = change.apply xid (σ.rows dbOid oid pages) rid)
    (fits : change.Fits xid (σ.rows dbOid oid pages)) (logged : change.Logged oid bodies)
    (locked : ∀ rid, change = .delete rid → ∀ xid', xid' ≠ xid → (σ.log.att.find? xid').isSome →
      ∀ r ∈ transactionLog σ.appended xid', ¬ r.body.Names oid rid)
    (placed : ∀ r : LogRecord, r.xid = xid → r.body ∈ bodies →
      r.Placed oid pages' (σ'.rows dbOid oid pages'))
    (created : bodies.filterMap (LogBody.creates? oid) = [] ∨
      bodies.filterMap (LogBody.creates? oid) = [newPageId pages]) :
    Grows dbOid oid pages pages' xid change σ σ' := by
  obtain ⟨records, rfl, hxid, hlog⟩ := logs.transactionLog_eq
  rw [List.filterMap_map] at created
  refine { log := logs.chain, small, cached, database, chain, sub := hsub, rows, fits, locked,
           active := fun x hx => (logs.active_iff x).mpr (ok.active x (logs.txn ▸ hx)),
           nextXid := by rw [logs.txn], writes := .inr logs.active, appends := fun xid' hactive => ?_ }
  refine ⟨transactionLog σ.appended xid', if xid' = xid then records else [], hlog xid',
    .inr ⟨(logs.active_iff xid').mp hactive, rfl⟩, ?_, ?_, fun hne => ?_, fun heq => ?_⟩
  · split
    · exact fun r hr => placed r (hxid r hr) (List.mem_map_of_mem hr)
    · exact fun _ h => absurd h List.not_mem_nil
  · split
    · exact created.imp id fun h => ⟨‹_›, h⟩
    · exact .inl rfl
  · rw [if_neg hne]
    exact fun _ h => absurd h List.not_mem_nil
  · rw [if_pos heq]
    exact logged

/-- An operation on another table. -/
theorem grows_of_beside (ok : TableOk dbOid oid pages σ) {xid : Nat} {bodies : List LogBody}
    (beside : Beside dbOid oid σ σ') (logs : Logs xid bodies σ σ')
    (hoff : ∀ body ∈ bodies, body.Off oid)
    (hfind : σ'.catalog.oid2table.find? oid = σ.catalog.oid2table.find? oid)
    (hdb : σ'.catalog.currentDatabaseOid = σ.catalog.currentDatabaseOid)
    (small : σ'.log.nextLsn < 2 ^ 32) : Grows dbOid oid pages pages xid .none σ σ' := by
  obtain ⟨table, htable, hdbOid, chain⟩ := ok.chain
  refine ok.grows_of_logs logs small beside.cached (hdb.trans ok.database)
    ⟨table, hfind.trans htable, hdbOid, chain.of_shows beside.shows'⟩ (List.Subset.refl _)
    (fun rid => by rw [beside.shows'.rows_eq ok.seen]; rfl) trivial
    (.of_quiet fun body hbody rid => LogBody.not_names_of_off (hoff body hbody))
    (fun _ h => RowChange.noConfusion h) (fun r _ hr => .of_off (hoff _ hr)) (.inl ?_)
  refine List.filterMap_eq_nil_iff.mpr fun body hbody => ?_
  exact LogBody.creates?_of_off (hoff body hbody)

/-- The row that an insertion puts into a page. -/
theorem exists_inserted {record : Record} {page : TablePage} (wf : page.WellFormed)
    (hpos : 0 < record.getSize) (hfree : record.getSize ≤ page.getFreeSpaceSize) (xid cid : Nat) :
    ∃ stored : StoredRecord, page.slots (page.insertRecord record xid cid).1 = none ∧
      (∀ s, (page.insertRecord record xid cid).2.2.slots s =
        if s = (page.insertRecord record xid cid).1 then some stored else page.slots s) ∧
      stored.record.header.xmin = xid ∧ stored.record.header.xmax = record.header.xmax := by
  obtain ⟨slot, hslots⟩ := wf.slots_insertRecord hpos hfree xid cid
  refine ⟨⟨slot, (page.insertRecord record xid cid).2.1⟩, ?_, hslots, rfl, rfl⟩
  rw [(wf.insertRecord hpos hfree xid cid).2.1]
  have hnot := mt (wf.slots page.getRecordCount).mp (Nat.lt_irrefl _)
  exact Option.not_isSome_iff_eq_none.mp hnot

/-- An insertion, with a new page or without. -/
theorem grows_inserted (ok : TableOk dbOid oid pages σ) {record : Record} {xid cid : Nat} {rid : Rid}
    (hpos : 0 < record.getSize) (hle : record.getSize ≤ maxRecordSize)
    (hxmax : record.header.xmax = nullXid)
    (hroom : Table.Full dbOid oid record.getSize pages σ → newPageId pages < nullPageId)
    (cached : Cached dbOid oid σ') (inserted : Table.Inserted dbOid oid record xid cid pages σ σ' rid)
    (small : σ'.log.nextLsn < 2 ^ 32) :
    ∃ pages' stored, Grows dbOid oid pages pages' xid (.insert rid stored) σ σ' := by
  obtain ⟨table, htable, hdbOid, chain⟩ := ok.chain
  have hfree : record.getSize ≤ TablePage.zero.init.getFreeSpaceSize :=
    Nat.le_trans hle TablePage.maxRecordSize_le_init_zero
  have newWf := (TablePage.wellFormed_init_zero.insertRecord hpos hfree xid cid).1
  obtain ⟨newStored, -, newSlots, newXmin, newXmax⟩ :=
    exists_inserted TablePage.wellFormed_init_zero hpos hfree xid cid
  cases inserted with
  | @room p lsn page mem view free stores logs catalog =>
      obtain ⟨page₁, hview₁, wf⟩ := chain.wellFormed p mem
      cases view.symm.trans hview₁
      obtain ⟨stored, hnone, hslots, hxmin, hxmax'⟩ := exists_inserted wf hpos free xid cid
      have rows (rid : Rid) : σ'.rows dbOid oid pages rid =
          (RowChange.insert ⟨p, (page.insertRecord record xid cid).1⟩ stored).apply xid
            (σ.rows dbOid oid pages) rid := by
        rw [stores.rows_eq mem ok.seen, RowChange.apply_insert]
        by_cases hp : rid.pageId = p
        · subst hp
          simp only [TablePage.setPageLsn_slots, hslots, Engine.rows_of_view mem view, Rid.eq_mk_iff,
            true_and, if_true]
        · rw [if_neg hp, if_neg fun h => hp (congrArg Rid.pageId h)]
      refine ⟨pages, stored, ok.grows_of_logs logs small cached ?_ ⟨table, ?_, hdbOid, ?_⟩
        (List.Subset.refl _) rows ?_ ?_ (fun _ h => RowChange.noConfusion h)
        (fun r hxid hbody => ?_) (.inl rfl)⟩
      · rw [catalog]
        exact ok.database
      · rw [catalog]
        exact htable
      · have hnext : ((page.insertRecord record xid cid).2.2.setPageLsn lsn).nextPageId =
            page.nextPageId := rfl
        exact chain.of_stores view hnext ((wf.insertRecord hpos free xid cid).1.setPageLsn lsn) stores
      · exact ⟨(Engine.rows_of_view mem view).trans hnone, hxmin, hxmax'.trans hxmax⟩
      · exact .insert stored (fun _ h => absurd h List.not_mem_nil)
      · exact .of_insert (List.mem_singleton.mp hbody)
            ((rows _).trans (RowChange.apply_insert_self _ _ _ _)) (hxmin.trans hxid.symm)
  | @last before p lsn page eq full view linked created others logs catalog =>
      subst eq
      have hp : p ∈ before ++ [p] := by simp
      have hroom := hroom full
      rw [Table.newPageId_concat] at hroom
      have hlt (q : Nat) (hq : q ∈ before) : q < p :=
        (List.pairwise_append.mp chain.sorted).2.2 q hq p List.mem_cons_self
      have hother {q : Nat} (hq : q ∈ before) {page' : TablePage}
          (hview : σ.view dbOid ⟨oid, q⟩ = some page') : σ'.view dbOid ⟨oid, q⟩ = some page' :=
        others q page' (Nat.ne_of_lt (hlt q hq)) (by have := hlt q hq; omega) hview
      obtain ⟨page₁, hview₁, wf⟩ := chain.wellFormed p hp
      cases view.symm.trans hview₁
      have chain' : PageChain dbOid oid σ' table.firstPageId (before ++ [p, p + 1]) := by
        refine { linked := chain.linked.concat (fun q hq => ?_) ?_ (Nat.ne_of_lt hroom) ?_,
                 sorted := ?_, wellFormed := fun q hq => ?_ }
        · obtain ⟨page', hview, -⟩ := chain.wellFormed q (List.mem_append_left _ hq)
          rw [Engine.nextPage_of_view hview, Engine.nextPage_of_view (hother hq hview)]
        · exact Engine.nextPage_of_view linked
        · exact Engine.nextPage_of_view created
        · refine List.pairwise_append.mpr ⟨(List.pairwise_append.mp chain.sorted).1, ?_,
             fun q hq q' hq' => ?_⟩
          · simp
          · have := hlt q hq
            simp only [List.mem_cons, List.not_mem_nil, or_false] at hq'
            omega
        · rcases List.mem_append.mp hq with hq | hq
          · obtain ⟨page', hview, wf'⟩ := chain.wellFormed q (List.mem_append_left _ hq)
            exact ⟨page', hother hq hview, wf'⟩
          · simp only [List.mem_cons, List.not_mem_nil, or_false] at hq
            rcases hq with rfl | rfl
            · exact ⟨_, linked, wf.setNextPageId _⟩
            · exact ⟨_, created, newWf.setPageLsn lsn⟩
      have hnot : p + 1 ∉ before ++ [p] := fun h => by
        rcases List.mem_append.mp h with h | h
        · have := hlt _ h
          omega
        · exact absurd (List.mem_singleton.mp h) (Nat.succ_ne_self p)
      have rows (rid : Rid) : σ'.rows dbOid oid (before ++ [p, p + 1]) rid =
          (RowChange.insert ⟨p + 1, (TablePage.zero.init.insertRecord record xid cid).1⟩ newStored).apply
            xid (σ.rows dbOid oid (before ++ [p])) rid := by
        rw [RowChange.apply_insert]
        by_cases hlast : rid.pageId = p + 1
        · have hmem : rid.pageId ∈ before ++ [p, p + 1] := by simp [hlast]
          rw [Engine.rows_of_view hmem (hlast ▸ created), TablePage.setPageLsn_slots, newSlots,
            Engine.rows_of_not_mem (hlast ▸ hnot)]
          simp only [Rid.eq_mk_iff, hlast, true_and]
          rfl
        · rw [if_neg fun h => hlast (congrArg Rid.pageId h)]
          by_cases hmem : rid.pageId ∈ before ++ [p]
          · have hmem' : rid.pageId ∈ before ++ [p, p + 1] := by
              simp only [List.mem_append, List.mem_cons] at hmem ⊢
              tauto
            obtain ⟨page', hview⟩ := ok.seen _ hmem
            rw [Engine.rows_of_view hmem hview]
            by_cases hpage : rid.pageId = p
            · rw [hpage] at hview
              cases view.symm.trans hview
              have hlinked : σ'.view dbOid ⟨oid, rid.pageId⟩ = some (page.setNextPageId (p + 1)) := by
                rw [hpage]
                exact linked
              have hrow := Engine.rows_of_view hmem' hlinked
              exact hrow
            · exact Engine.rows_of_view hmem' (others _ _ hpage hlast hview)
          · have hmem' : rid.pageId ∉ before ++ [p, p + 1] := by
              simp only [List.mem_append, List.mem_cons] at hmem ⊢
              tauto
            rw [Engine.rows_of_not_mem hmem, Engine.rows_of_not_mem hmem']
      have hsub : before ++ [p] ⊆ before ++ [p, p + 1] := fun q hq => by
        simp only [List.mem_append, List.mem_cons] at hq ⊢
        tauto
      refine ⟨before ++ [p, p + 1], newStored, ok.grows_of_logs logs small cached ?_
        ⟨table, ?_, hdbOid, chain'⟩ hsub rows ?_ ?_ (fun _ h => RowChange.noConfusion h)
        (fun r hxid hbody => ?_) (.inr ?_)⟩
      · rw [catalog]
        exact ok.database
      · rw [catalog]
        exact htable
      · exact ⟨Engine.rows_of_not_mem hnot, newXmin, newXmax.trans hxmax⟩
      · exact .insert newStored fun body hbody => List.mem_singleton.mp hbody ▸ ⟨_, _, _, rfl⟩
      · rcases List.mem_cons.mp hbody with hbody | hbody
        · exact .of_newPage hbody (by simp) (.inr rfl)
        · exact .of_insert (List.mem_singleton.mp hbody) ((rows _).trans (RowChange.apply_insert_self _ _ _ _))
            (newXmin.trans hxid.symm)
      · rw [Table.newPageId_concat]
        simp [LogBody.creates?, Table.insertBody]
  | @first lsn table' nil created others logs hfind catalog =>
      subst nil
      cases htable.symm.trans hfind
      have rows (rid : Rid) : σ'.rows dbOid oid [0] rid =
          (RowChange.insert ⟨0, (TablePage.zero.init.insertRecord record xid cid).1⟩ newStored).apply
            xid (σ.rows dbOid oid []) rid := by
        rw [RowChange.apply_insert, Engine.rows_of_not_mem List.not_mem_nil]
        by_cases hp : rid.pageId = 0
        · have hmem : rid.pageId ∈ [0] := List.mem_singleton.mpr hp
          rw [Engine.rows_of_view hmem (hp ▸ created), TablePage.setPageLsn_slots, newSlots]
          simp only [Rid.eq_mk_iff, hp, true_and]
          rfl
        · rw [if_neg fun h => hp (congrArg Rid.pageId h),
            Engine.rows_of_not_mem fun h => hp (List.mem_singleton.mp h)]
      refine ⟨[0], newStored, ok.grows_of_logs logs small cached ?_
        ⟨{ table with firstPageId := 0 }, ?_, hdbOid, ?_⟩ (fun _ h => absurd h List.not_mem_nil) rows
        ?_ ?_ (fun _ h => RowChange.noConfusion h) (fun r hxid hbody => ?_) (.inr ?_)⟩
      · rw [catalog]
        exact ok.database
      · rw [catalog]
        exact Assoc.find?_insert_self _ _ _
      · refine { linked := ⟨(by decide : (0 : Nat) ≠ nullPageId), rfl, nullPageId,
                     Engine.nextPage_of_view created, rfl⟩,
                 sorted := List.pairwise_singleton _ _, wellFormed := fun q hq => ?_ }
        cases List.mem_singleton.mp hq
        exact ⟨_, created, newWf.setPageLsn lsn⟩
      · exact ⟨Engine.rows_of_not_mem List.not_mem_nil, newXmin, newXmax.trans hxmax⟩
      · exact .insert newStored fun body hbody => List.mem_singleton.mp hbody ▸ ⟨_, _, _, rfl⟩
      · rcases List.mem_cons.mp hbody with hbody | hbody
        · exact .of_newPage hbody List.mem_cons_self (.inl ⟨rfl, rfl⟩)
        · exact .of_insert (List.mem_singleton.mp hbody) ((rows _).trans (RowChange.apply_insert_self _ _ _ _))
            (newXmin.trans hxid.symm)
      · simp [LogBody.creates?, Table.insertBody, newPageId]

/-- A deletion of a row of the table that no other active transaction touched. -/
theorem grows_deleted (ok : TableOk dbOid oid pages σ) {xid : Nat} {rid : Rid}
    (hmem : rid.pageId ∈ pages)
    (hlocked : ∀ xid', xid' ≠ xid → (σ.log.att.find? xid').isSome →
      ∀ r ∈ transactionLog σ.appended xid', ¬ r.body.Names oid rid)
    (run : Table.deleteRecord oid rid xid σ = .ok () σ') (small : σ'.log.nextLsn < 2 ^ 32) :
    Grows dbOid oid pages pages xid (.delete rid) σ σ' := by
  obtain ⟨table, htable, hdb, chain⟩ := ok.chain
  obtain ⟨cached, hcatalog, logs, page, page', lsn, hview, hpage, stores⟩ :=
    Table.deleteRecord_deleted ok.log ok.small ok.cached htable hdb run
  obtain ⟨page₁, hview₁, wf⟩ := chain.wellFormed rid.pageId hmem
  cases hview.symm.trans hview₁
  have wf' := wf.modifyHeader hpage
  obtain ⟨stored, hslot, hpage'⟩ := Option.map_eq_some_iff.mp hpage
  have hnext : (page'.setPageLsn lsn).nextPageId = page.nextPageId := by
    rw [← hpage']
    rfl
  have hslots (s : Nat) : page'.slots s =
      if s = rid.slotId then some (stored.mapHeader (RecordHeader.deletedBy xid)) else page.slots s := by
    rw [← hpage']
    rfl
  have hrow : σ.rows dbOid oid pages rid = some stored := (Engine.rows_of_view hmem hview).trans hslot
  have rows (rid' : Rid) : σ'.rows dbOid oid pages rid' =
      (RowChange.delete rid).apply xid (σ.rows dbOid oid pages) rid' := by
    rw [stores.rows_eq hmem ok.seen, RowChange.apply_delete]
    by_cases hrid : rid' = rid
    · subst hrid
      rw [if_pos rfl, if_pos rfl, TablePage.setPageLsn_slots, hslots, if_pos rfl, hrow]
      rfl
    · rw [if_neg hrid]
      split
      · rename_i hp
        have hs : rid'.slotId ≠ rid.slotId := fun h => hrid (Rid.eq_mk_iff.mpr ⟨hp, h⟩)
        rw [TablePage.setPageLsn_slots, hslots, if_neg hs, Engine.rows_of_view (hp ▸ hmem) (hp ▸ hview)]
      · rfl
  refine ok.grows_of_logs logs small cached (by rw [hcatalog]; exact ok.database)
    ⟨table, by rw [hcatalog]; exact htable, hdb, chain.of_stores hview hnext (wf'.setPageLsn lsn) stores⟩
    (List.Subset.refl _) rows (by rw [RowChange.Fits, hrow]; rfl) (.delete oid rid)
    (fun _ h => ?_) (fun r _ hbody => ?_) (.inl rfl)
  · cases h
    exact hlocked
  · exact .of_delete (List.mem_singleton.mp hbody)
      ((rows rid).trans ((if_pos rfl).trans (by rw [hrow]; rfl)))

end TableOk

end HuaDB
