import HuaDB.RollbackView

/-!
The rows of a table and the log records that tell of them.

Between operations the linked pages of a table hold its rows (`Engine.rows`). An
operation adds a row or marks one as deleted (`RowChange`), and logs it
(`RowChange.Logged`); what a record of an active transaction says is still to be found
in the table (`LogRecord.Placed`).
-/

namespace HuaDB

/-- The linked pages of a loaded table. -/
def Engine.Pages (dbOid oid : Nat) (σ : Engine) (pages : List Nat) : Prop :=
  ∃ table, σ.catalog.oid2table.find? oid = some table ∧ table.dbOid = dbOid ∧
    PageChain dbOid oid σ table.firstPageId pages

theorem Engine.Pages.unique {dbOid oid : Nat} {σ : Engine} {pages pages' : List Nat}
    (h : σ.Pages dbOid oid pages) (h' : σ.Pages dbOid oid pages') : pages = pages' := by
  obtain ⟨table, hfind, -, chain⟩ := h
  obtain ⟨table', hfind', -, chain'⟩ := h'
  cases hfind.symm.trans hfind'
  exact chain.linked.unique chain'.linked

theorem Engine.Pages.exists_view {dbOid oid : Nat} {σ : Engine} {pages : List Nat}
    (h : σ.Pages dbOid oid pages) {p : Nat} (hp : p ∈ pages) :
    ∃ page, σ.view dbOid ⟨oid, p⟩ = some page ∧ page.WellFormed := by
  obtain ⟨table, -, -, chain⟩ := h
  exact chain.wellFormed p hp

theorem Engine.Pages.sorted {dbOid oid : Nat} {σ : Engine} {pages : List Nat}
    (h : σ.Pages dbOid oid pages) : pages.Pairwise (· < ·) := by
  obtain ⟨_, -, -, chain⟩ := h
  exact chain.sorted

/-- Following the links from the first page of a table comes to a page. -/
def Engine.Linked (dbOid oid : Nat) (σ : Engine) (p : Nat) : Prop :=
  ∃ table, σ.catalog.oid2table.find? oid = some table ∧
    LinkedList.Reached (σ.nextPage dbOid oid) nullPageId table.firstPageId p

theorem Engine.Pages.linked_iff {dbOid oid : Nat} {σ : Engine} {pages : List Nat}
    (h : σ.Pages dbOid oid pages) (p : Nat) : σ.Linked dbOid oid p ↔ p ∈ pages := by
  obtain ⟨table, hfind, -, chain⟩ := h
  rw [← chain.linked.reached_iff]
  constructor
  · rintro ⟨table', hfind', reached⟩
    cases hfind.symm.trans hfind'
    exact reached
  · exact fun reached => ⟨table, hfind, reached⟩

/-! ## Rows -/

theorem Rid.eq_mk_iff {rid : Rid} {p s : Nat} : rid = ⟨p, s⟩ ↔ rid.pageId = p ∧ rid.slotId = s := by
  cases rid
  simp

/-- The rows of a table, by their places. -/
abbrev RowMap := Rid → Option StoredRecord

/-- The records of the given pages. -/
def Engine.rows (dbOid oid : Nat) (pages : List Nat) (σ : Engine) : RowMap := fun rid =>
  if rid.pageId ∈ pages then
    (σ.view dbOid ⟨oid, rid.pageId⟩).bind fun page => page.slots rid.slotId
  else
    none

namespace Engine

variable {dbOid oid : Nat} {pages : List Nat} {σ : Engine} {rid : Rid}

theorem rows_of_not_mem (h : rid.pageId ∉ pages) : σ.rows dbOid oid pages rid = none := if_neg h

theorem rows_of_view {page : TablePage} (hp : rid.pageId ∈ pages)
    (hview : σ.view dbOid ⟨oid, rid.pageId⟩ = some page) :
    σ.rows dbOid oid pages rid = page.slots rid.slotId := by
  rw [rows, if_pos hp, hview]
  rfl

theorem mem_of_rows {stored : StoredRecord} (h : σ.rows dbOid oid pages rid = some stored) :
    rid.pageId ∈ pages := by
  by_contra hp
  rw [rows_of_not_mem hp] at h
  cases h

end Engine

/-- A row that following the links of a table comes to. -/
def Engine.HasRow (dbOid oid : Nat) (σ : Engine) (rid : Rid) (stored : StoredRecord) : Prop :=
  σ.Linked dbOid oid rid.pageId ∧
    ∃ page, σ.view dbOid ⟨oid, rid.pageId⟩ = some page ∧ page.slots rid.slotId = some stored

theorem Engine.Pages.hasRow_iff {dbOid oid : Nat} {σ : Engine} {pages : List Nat}
    (h : σ.Pages dbOid oid pages) {rid : Rid} {stored : StoredRecord} :
    σ.HasRow dbOid oid rid stored ↔ σ.rows dbOid oid pages rid = some stored := by
  rw [HasRow, h.linked_iff]
  constructor
  · rintro ⟨hp, page, hview, hslot⟩
    exact (rows_of_view hp hview).trans hslot
  · intro hrow
    have hp := mem_of_rows hrow
    obtain ⟨page, hview, -⟩ := h.exists_view hp
    exact ⟨hp, page, hview, (rows_of_view hp hview).symm.trans hrow⟩

def StoredRecord.mapHeader (f : RecordHeader → RecordHeader) (stored : StoredRecord) : StoredRecord :=
  { stored with record := { stored.record with header := f stored.record.header } }

def RecordHeader.deletedBy (xid : Nat) (header : RecordHeader) : RecordHeader :=
  { header with deleted := true, xmax := xid }

/-- What an operation does to the rows of a table. -/
inductive RowChange where
  | none
  | insert (rid : Rid) (stored : StoredRecord)
  | delete (rid : Rid)

namespace RowChange

variable {writer oid : Nat} {rows : RowMap} {change : RowChange}

def apply (writer : Nat) (rows : RowMap) : RowChange → RowMap
  | none, rid => rows rid
  | insert rid' stored, rid => if rid = rid' then some stored else rows rid
  | delete rid', rid =>
      if rid = rid' then (rows rid).map (StoredRecord.mapHeader (RecordHeader.deletedBy writer))
      else rows rid

theorem apply_insert (writer : Nat) (rows : RowMap) (rid rid' : Rid) (stored : StoredRecord) :
    (insert rid' stored).apply writer rows rid = if rid = rid' then some stored else rows rid := rfl

theorem apply_insert_self (writer : Nat) (rows : RowMap) (rid : Rid) (stored : StoredRecord) :
    (insert rid stored).apply writer rows rid = some stored := if_pos rfl

theorem apply_delete (writer : Nat) (rows : RowMap) (rid rid' : Rid) :
    (delete rid').apply writer rows rid =
      if rid = rid' then (rows rid).map (StoredRecord.mapHeader (RecordHeader.deletedBy writer))
      else rows rid := rfl

/-- A new row takes a free place, and a row that is deleted is there. -/
def Fits (writer : Nat) (rows : RowMap) : RowChange → Prop
  | none => True
  | insert rid stored => rows rid = .none ∧ stored.record.header.xmin = writer ∧
      stored.record.header.xmax = nullXid
  | delete rid => (rows rid).isSome

/-- A row that was there stays, and only the header of the row that is deleted changes. -/
theorem apply_old (fits : change.Fits writer rows) {rid : Rid} {stored : StoredRecord}
    (h : rows rid = some stored) :
    ∃ stored', change.apply writer rows rid = some stored' ∧
      (change = .delete rid ∧ stored' = stored.mapHeader (RecordHeader.deletedBy writer) ∨
        change ≠ .delete rid ∧ stored' = stored) := by
  cases change with
  | none => exact ⟨stored, h, .inr ⟨RowChange.noConfusion, rfl⟩⟩
  | insert rid' new =>
      have hne : rid ≠ rid' := by
        rintro rfl
        cases fits.1.symm.trans h
      exact ⟨stored, (if_neg hne).trans h, .inr ⟨RowChange.noConfusion, rfl⟩⟩
  | delete rid' =>
      by_cases hrid : rid = rid'
      · subst hrid
        exact ⟨_, (if_pos rfl).trans (congrArg (Option.map _) h), .inl ⟨rfl, rfl⟩⟩
      · refine ⟨stored, (if_neg hrid).trans h, .inr ⟨fun heq => hrid ?_, rfl⟩⟩
        cases heq
        rfl

/-- No row goes, and who inserted it does not change. -/
theorem apply_keeps (fits : change.Fits writer rows) {rid : Rid} {stored : StoredRecord}
    (h : rows rid = some stored) :
    ∃ stored', change.apply writer rows rid = some stored' ∧
      stored'.record.header.xmin = stored.record.header.xmin := by
  obtain ⟨stored', happly, hstored⟩ := apply_old fits h
  refine ⟨stored', happly, ?_⟩
  rcases hstored with ⟨-, rfl⟩ | ⟨-, rfl⟩ <;> rfl

end RowChange

/-! ## Rows and log records -/

namespace LogBody

def Inserts (oid : Nat) (rid : Rid) (body : LogBody) : Prop :=
  ∃ offset size record, body = .insert oid rid.pageId rid.slotId offset size record

def Deletes (oid : Nat) (rid : Rid) (body : LogBody) : Prop :=
  body = .delete oid rid.pageId rid.slotId

/-- A body that says of a row that it was inserted or deleted. -/
def Names (oid : Nat) (rid : Rid) (body : LogBody) : Prop :=
  body.Inserts oid rid ∨ body.Deletes oid rid

variable {oid : Nat} {rid : Rid} {body : LogBody}

theorem not_names_of_off (h : body.Off oid) : ¬ body.Names oid rid := by
  rintro (⟨_, _, _, rfl⟩ | rfl)
  · exact h rfl
  · exact h rfl

theorem Inserts.unique {rid' : Rid} (h : body.Inserts oid rid) (h' : body.Inserts oid rid') :
    rid = rid' := by
  obtain ⟨_, _, _, rfl⟩ := h
  obtain ⟨_, _, _, heq⟩ := h'
  cases rid
  cases rid'
  simp_all

end LogBody

/-- The records of an operation tell of its change and of no other. -/
structure RowChange.Logged (oid : Nat) (change : RowChange) (bodies : List LogBody) : Prop where
  inserts : ∀ body ∈ bodies, ∀ rid, body.Inserts oid rid → ∃ stored, change = .insert rid stored
  deletes : ∀ body ∈ bodies, ∀ rid, body.Deletes oid rid → change = .delete rid
  inserted : ∀ rid stored, change = .insert rid stored → ∃ body ∈ bodies, body.Inserts oid rid
  deleted : ∀ rid, change = .delete rid → ∃ body ∈ bodies, body.Deletes oid rid

theorem RowChange.Logged.of_quiet {oid : Nat} {bodies : List LogBody}
    (h : ∀ body ∈ bodies, ∀ rid, ¬ body.Names oid rid) : RowChange.none.Logged oid bodies where
  inserts body hbody rid hins := absurd (.inl hins) (h body hbody rid)
  deletes body hbody rid hdel := absurd (.inr hdel) (h body hbody rid)
  inserted _ _ h := RowChange.noConfusion h
  deleted _ h := RowChange.noConfusion h

theorem RowChange.Logged.insert {oid p : Nat} {placed : Nat × Record × TablePage}
    {bodies : List LogBody}
    (stored : StoredRecord) (hbodies : ∀ body ∈ bodies, ∃ oid prev q, body = .newPage oid prev q) :
    (RowChange.insert ⟨p, placed.1⟩ stored).Logged oid (bodies ++ [Table.insertBody oid p placed]) := by
  have hself : (Table.insertBody oid p placed).Inserts oid ⟨p, placed.1⟩ := ⟨_, _, _, rfl⟩
  refine ⟨fun body hbody rid hins => ?_, fun body hbody rid hdel => ?_, fun rid stored' h => ?_,
    fun _ h => RowChange.noConfusion h⟩
  · rcases List.mem_append.mp hbody with hbody | hbody
    · obtain ⟨_, _, _, rfl⟩ := hbodies body hbody
      obtain ⟨_, _, _, h⟩ := hins
      cases h
    · cases List.mem_singleton.mp hbody
      exact ⟨stored, by rw [hself.unique hins]⟩
  · rcases List.mem_append.mp hbody with hbody | hbody
    · obtain ⟨_, _, _, rfl⟩ := hbodies body hbody
      cases hdel
    · cases List.mem_singleton.mp hbody
      cases hdel
  · cases h
    exact ⟨_, List.mem_append_right _ (List.mem_singleton_self _), hself⟩

theorem RowChange.Logged.delete (oid : Nat) (rid : Rid) :
    (RowChange.delete rid).Logged oid [.delete oid rid.pageId rid.slotId] := by
  refine ⟨fun body hbody rid' hins => ?_, fun body hbody rid' hdel => ?_,
    fun _ _ h => RowChange.noConfusion h, fun rid' h => ⟨_, List.mem_singleton_self _, ?_⟩⟩
  · rw [List.mem_singleton.mp hbody] at hins
    obtain ⟨_, _, _, h⟩ := hins
    cases h
  · rw [List.mem_singleton.mp hbody] at hdel
    cases rid
    cases rid'
    cases hdel
    rfl
  · cases h
    rfl

/-- What a record of an active transaction says of a table is still to be found there. -/
structure LogRecord.Placed (oid : Nat) (pages : List Nat) (rows : RowMap) (r : LogRecord) :
    Prop where
  inserted : ∀ rid, r.body.Inserts oid rid →
    ∃ stored, rows rid = some stored ∧ stored.record.header.xmin = r.xid
  deleted : ∀ rid, r.body.Deletes oid rid → ∃ stored, rows rid = some stored
  created : ∀ prev p, r.body = .newPage oid prev p →
    p ∈ pages ∧ (prev = nullPageId ∧ p = 0 ∨ prev + 1 = p)

namespace LogRecord.Placed

variable {oid : Nat} {pages pages' : List Nat} {rows rows' : RowMap} {r : LogRecord}

theorem exists_row (h : r.Placed oid pages rows) {rid : Rid} (hnames : r.body.Names oid rid) :
    ∃ stored, rows rid = some stored := by
  rcases hnames with hins | hdel
  · obtain ⟨stored, hrow, -⟩ := h.inserted rid hins
    exact ⟨stored, hrow⟩
  · exact h.deleted rid hdel

/-- A state in which the pages and the rows are still there. -/
theorem mono (h : r.Placed oid pages rows) (hsub : pages ⊆ pages')
    (keeps : ∀ rid stored, rows rid = some stored → ∃ stored', rows' rid = some stored' ∧
      stored'.record.header.xmin = stored.record.header.xmin) : r.Placed oid pages' rows' where
  inserted rid hins := by
    obtain ⟨stored, hrow, hxmin⟩ := h.inserted rid hins
    obtain ⟨stored', hrow', hxmin'⟩ := keeps rid stored hrow
    exact ⟨stored', hrow', hxmin'.trans hxmin⟩
  deleted rid hdel := by
    obtain ⟨stored, hrow⟩ := h.deleted rid hdel
    obtain ⟨stored', hrow', -⟩ := keeps rid stored hrow
    exact ⟨stored', hrow'⟩
  created prev p hbody := by
    obtain ⟨hp, hprev⟩ := h.created prev p hbody
    exact ⟨hsub hp, hprev⟩

/-- A record that does not name the table. -/
theorem of_off (h : r.body.Off oid) : r.Placed oid pages rows where
  inserted _ hins := absurd (.inl hins) (LogBody.not_names_of_off h)
  deleted _ hdel := absurd (.inr hdel) (LogBody.not_names_of_off h)
  created prev p hbody := by
    rw [hbody] at h
    exact absurd rfl h

theorem of_insert {p : Nat} {placed : Nat × Record × TablePage} {stored : StoredRecord}
    (hbody : r.body = Table.insertBody oid p placed) (hrow : rows ⟨p, placed.1⟩ = some stored)
    (hxmin : stored.record.header.xmin = r.xid) : r.Placed oid pages rows where
  inserted rid hins := by
    rw [hbody] at hins
    have hself : (Table.insertBody oid p placed).Inserts oid ⟨p, placed.1⟩ := ⟨_, _, _, rfl⟩
    exact ⟨stored, hself.unique hins ▸ hrow, hxmin⟩
  deleted rid hdel := by
    rw [hbody] at hdel
    cases hdel
  created prev q h := by
    rw [hbody] at h
    cases h

theorem of_delete {rid : Rid} {stored : StoredRecord}
    (hbody : r.body = .delete oid rid.pageId rid.slotId) (hrow : rows rid = some stored) :
    r.Placed oid pages rows where
  inserted rid' hins := by
    rw [hbody] at hins
    obtain ⟨_, _, _, h⟩ := hins
    cases h
  deleted rid' hdel := by
    rw [hbody] at hdel
    cases rid
    cases rid'
    cases hdel
    exact ⟨stored, hrow⟩
  created prev q h := by
    rw [hbody] at h
    cases h

theorem of_newPage {prev p : Nat} (hbody : r.body = .newPage oid prev p) (hp : p ∈ pages)
    (hprev : prev = nullPageId ∧ p = 0 ∨ prev + 1 = p) : r.Placed oid pages rows where
  inserted rid hins := by
    rw [hbody] at hins
    obtain ⟨_, _, _, h⟩ := hins
    cases h
  deleted rid hdel := by
    rw [hbody] at hdel
    cases hdel
  created prev' q h := by
    cases hbody.symm.trans h
    exact ⟨hp, hprev⟩

end LogRecord.Placed

theorem xid_of_mem_transactionLog {log : List LogRecord} {xid : Nat} {r : LogRecord}
    (h : r ∈ transactionLog log xid) : r.xid = xid := by
  induction log using List.reverseRecOn with
  | nil => cases h
  | append_singleton log r' ih =>
      rw [transactionLog_concat] at h
      split at h
      · rename_i hxid
        split at h
        · rw [List.mem_singleton.mp h, hxid]
        · rcases List.mem_append.mp h with h | h
          · exact ih h
          · rw [List.mem_singleton.mp h, hxid]
      · exact ih h

theorem LogBody.creates?_of_off {oid : Nat} {body : LogBody} (h : body.Off oid) :
    body.creates? oid = none := by
  unfold LogBody.creates?
  split
  · exact if_neg h
  · rfl

theorem createdPages_of_off {oid : Nat} {records : List LogRecord} (h : ∀ r ∈ records, r.body.Off oid) :
    createdPages oid records = [] :=
  List.filterMap_eq_nil_iff.mpr fun r hr => LogBody.creates?_of_off (h r hr)

end HuaDB
