import HuaDB.Lib.SortedLists
import HuaDB.TableRuns

/-!
The rows of a table that a reader is given.

`TableScan::GetNextRecord` follows the links of a table and skips the records that
`TableScan::CanGet` hides. What it hands out depends on the rows only, not on the pages
they are on, as long as those are linked in one order (`Engine.visibleRows_eq`).
-/

namespace HuaDB

/-- The data of a record, unless the reader skips it. -/
def StoredRecord.visible? (hidden : RecordHeader → Bool) (stored : StoredRecord) :
    Option (List UInt8) :=
  if hidden stored.record.header then none else some stored.record.data

/-- The records of a page that a reader does not skip. -/
def TablePage.visible (hidden : RecordHeader → Bool) (page : TablePage) : List (List UInt8) :=
  (List.range page.getRecordCount).filterMap fun s =>
    (page.slots s).bind (StoredRecord.visible? hidden)

/-- The records that a reader does not skip, page after page. -/
def Engine.visibleRows (dbOid oid : Nat) (hidden : RecordHeader → Bool) (pages : List Nat)
    (σ : Engine) : List (List UInt8) :=
  pages.flatMap fun p => ((σ.view dbOid ⟨oid, p⟩).map (TablePage.visible hidden)).getD []

theorem StoredRecord.visible?_of_hidden {hidden : RecordHeader → Bool} {stored : StoredRecord}
    (h : hidden stored.record.header = true) : stored.visible? hidden = none := if_pos h

/-- The same data and headers that are taken alike. -/
theorem StoredRecord.visible?_congr {hidden hidden' : RecordHeader → Bool}
    {stored stored' : StoredRecord} (hdata : stored'.record.data = stored.record.data)
    (hheader : hidden' stored'.record.header = hidden stored.record.header) :
    stored'.visible? hidden' = stored.visible? hidden := by
  rw [visible?, visible?, hdata, hheader]

section visible

variable {dbOid oid : Nat} {pages pages' : List Nat} {σ σ' : Engine}
  {hidden hidden' : RecordHeader → Bool}

theorem TablePage.visible_eq {page page' : TablePage} (wf : page.WellFormed) (wf' : page'.WellFormed)
    (h : ∀ s, (page.slots s).bind (StoredRecord.visible? hidden) =
      (page'.slots s).bind (StoredRecord.visible? hidden')) :
    page.visible hidden = page'.visible hidden' := by
  have hnone {page : TablePage} (wf : page.WellFormed) {s : Nat} (hs : page.getRecordCount ≤ s) :
      page.slots s = none := by
    rw [← Option.not_isSome_iff_eq_none, wf.slots]
    exact Nat.not_lt_of_le hs
  refine SortedLists.filterMap_range_eq (fun s _ _ => h s) (fun s _ hs => ?_) fun s _ hs => ?_
  · rw [h, hnone wf' hs]
    rfl
  · rw [← h, hnone wf hs]
    rfl

/-- A page on which the reader skips every record. -/
theorem TablePage.visible_eq_nil {page : TablePage}
    (h : ∀ s, (page.slots s).bind (StoredRecord.visible? hidden) = none) :
    page.visible hidden = [] :=
  List.filterMap_eq_nil_iff.mpr fun s _ => h s

/-- The same pages in two states, to a reader for each. -/
theorem Engine.visibleRows_congr
    (seen : ∀ p ∈ pages, ∃ page page', σ.view dbOid ⟨oid, p⟩ = some page ∧ page.WellFormed ∧
      σ'.view dbOid ⟨oid, p⟩ = some page' ∧ page'.WellFormed)
    (h : ∀ rid, rid.pageId ∈ pages → (σ.rows dbOid oid pages rid).bind (StoredRecord.visible? hidden) =
      (σ'.rows dbOid oid pages rid).bind (StoredRecord.visible? hidden')) :
    σ.visibleRows dbOid oid hidden pages = σ'.visibleRows dbOid oid hidden' pages := by
  refine List.flatMap_congr fun p hp => ?_
  obtain ⟨page, page', hview, wf, hview', wf'⟩ := seen p hp
  rw [hview, hview']
  refine TablePage.visible_eq wf wf' fun s => ?_
  have hrow := h ⟨p, s⟩ hp
  rw [rows_of_view hp hview, rows_of_view hp hview'] at hrow
  exact hrow

/-- Where every row is alike to a reader, it is given the same rows in the same order. -/
theorem Engine.visibleRows_eq (chain : σ.Pages dbOid oid pages) (chain' : σ'.Pages dbOid oid pages')
    (h : ∀ rid, (σ.rows dbOid oid pages rid).bind (StoredRecord.visible? hidden) =
      (σ'.rows dbOid oid pages' rid).bind (StoredRecord.visible? hidden)) :
    σ.visibleRows dbOid oid hidden pages = σ'.visibleRows dbOid oid hidden pages' := by
  refine SortedLists.flatMap_eq_of_sorted chain.sorted chain'.sorted (fun p hp hp' => ?_)
    (fun p hp hp' => ?_) fun p hp' hp => ?_
  · obtain ⟨page, hview, wf⟩ := chain.exists_view hp
    obtain ⟨page', hview', wf'⟩ := chain'.exists_view hp'
    rw [hview, hview']
    refine TablePage.visible_eq wf wf' fun s => ?_
    have hrow := h ⟨p, s⟩
    rw [rows_of_view hp hview, rows_of_view hp' hview'] at hrow
    exact hrow
  · obtain ⟨page, hview, wf⟩ := chain.exists_view hp
    rw [hview]
    refine TablePage.visible_eq_nil fun s => ?_
    have hrow := h ⟨p, s⟩
    rw [rows_of_view hp hview, rows_of_not_mem hp'] at hrow
    exact hrow
  · obtain ⟨page', hview', wf'⟩ := chain'.exists_view hp'
    rw [hview']
    refine TablePage.visible_eq_nil fun s => ?_
    have hrow := h ⟨p, s⟩
    rw [rows_of_not_mem hp, rows_of_view hp' hview'] at hrow
    exact hrow.symm

end visible

end HuaDB
