import HuaDB.Lib.LinkedList
import HuaDB.Lib.VolcanoLists
import HuaDB.Sql.Rows

/-!
A whole scan of a table, as `TableScan::GetNextRecord` makes it call by call.

The pages of a table are any chain that ends, each with at least one record. `Heap.Left` is
what the invariant of the cursor says: `rid_` stands at a record of a page of the chain, or past
the end, and what is left is that record and those after it. A call drops from this what it
skips and what it returns, so that all calls together give the visible records once each, in the
order of the chain and the slots (`tableScan_gives`).
-/

namespace HuaDB

open LinkedList (Segment)
open Sql (Tuple)

/-! ## Chains of pages -/

/-- Every slot up to the record count holds a record, and there is one. -/
def TablePage.Filled (page : TablePage) : Prop :=
  0 < page.getRecordCount ∧ ∀ s < page.getRecordCount, ∃ found, page.getRecord s = some found

namespace Heap

variable {h : Heap} {first p : Nat} {l : List Nat} {rid : Rid} {rest : List Tuple}

/-- From a page number the links lead through a list of pages to the end, and all hold records. -/
structure ChainFrom (h : Heap) (first : Nat) (l : List Nat) : Prop where
  segment : Segment (fun p => (h.page p).map TablePage.nextPageId) nullPageId first l nullPageId
  filled : ∀ p ∈ l, ∀ page, h.page p = some page → page.Filled

/-- The records of some pages, with their places. -/
def chainRows (h : Heap) (l : List Nat) : List Tuple :=
  l.flatMap fun p => match h.page p with
    | some page => page.tuples p 0
    | none => []

theorem ChainFrom.cons_cases (chain : h.ChainFrom first (p :: l)) :
    first ≠ nullPageId ∧ p = first ∧
      ∃ page, h.page p = some page ∧ page.Filled ∧ h.ChainFrom page.nextPageId l := by
  obtain ⟨⟨hne, rfl, next, hnext, hsegment⟩, hfilled⟩ := chain
  obtain ⟨page, hpage, rfl⟩ := Option.map_eq_some_iff.mp hnext
  exact ⟨hne, rfl, page, hpage, hfilled p List.mem_cons_self page hpage, hsegment,
    fun q hq => hfilled q (List.mem_cons_of_mem _ hq)⟩

/-- A record of the chain is where its `Rid` says. -/
theorem mem_chainRows {tuple : Tuple} (hmem : tuple ∈ h.chainRows l) :
    tuple.rid.pageId ∈ l ∧ ∃ page, h.page tuple.rid.pageId = some page ∧
      tuple.rid.slotId < page.getRecordCount ∧
      page.getRecord tuple.rid.slotId = some tuple.record := by
  obtain ⟨p, hp, hmem⟩ := List.mem_flatMap.mp hmem
  cases hpage : h.page p with
  | none =>
      rw [hpage] at hmem
      cases hmem
  | some page =>
      rw [hpage] at hmem
      obtain ⟨rfl, -, hslot, hfound⟩ := TablePage.mem_tuples hmem
      exact ⟨hp, page, hpage, hslot, hfound⟩

/-- No two records of a chain have one place. -/
theorem ChainFrom.nodup_rids (chain : h.ChainFrom first l) :
    ((h.chainRows l).map Tuple.rid).Nodup := by
  induction l generalizing first with
  | nil => exact List.nodup_nil
  | cons p l ih =>
      obtain ⟨-, -, page, hpage, -, hrest⟩ := chain.cons_cases
      have hsplit : h.chainRows (p :: l) = page.tuples p 0 ++ h.chainRows l := by
        rw [chainRows, List.flatMap_cons, hpage]
        rfl
      rw [hsplit, List.map_append]
      refine List.nodup_append'.mpr ⟨TablePage.nodup_tuples, ih hrest, fun rid hfirst hlater => ?_⟩
      obtain ⟨tuple, htuple, rfl⟩ := List.mem_map.mp hfirst
      obtain ⟨tuple', htuple', heq⟩ := List.mem_map.mp hlater
      have hpageId := (TablePage.mem_tuples htuple).1
      have hin := (mem_chainRows htuple').1
      rw [heq, hpageId] at hin
      exact (List.nodup_cons.mp chain.segment.nodup).1 hin

/-- The pages of a sound heap are such a chain, and its rows are those of the chain. -/
theorem Ok.exists_chainFrom (ok : h.Ok) :
    ∃ l, h.ChainFrom h.first l ∧ h.chainRows l = h.rows := by
  apply ok.induct (C := fun p => ∃ l, h.ChainFrom p l ∧ h.chainRows l = h.rest ⟨p, 0⟩) _ _ h.first
    ok.first
  · exact ⟨[], ⟨rfl, fun _ hp => (by cases hp)⟩, (rest_null 0).symm⟩
  · rintro p page hne hpage ⟨l, ⟨hsegment, hfilled⟩, hrows⟩
    have hpageFilled : page.Filled :=
      ⟨ok.nonempty p page hpage, fun s hs => (ok.wellFormed p page hpage).exists_getRecord hs⟩
    refine ⟨p :: l, ⟨⟨hne, rfl, page.nextPageId, ?_, hsegment⟩, ?_⟩, ?_⟩
    · change (h.page p).map _ = _
      rw [hpage]
      rfl
    · rw [List.forall_mem_cons]
      refine ⟨fun page' hpage' => ?_, hfilled⟩
      cases hpage.symm.trans hpage'
      exact hpageFilled
    · rw [ok.rest_stored hne hpage, ← hrows, chainRows, List.flatMap_cons, hpage]
      rfl

/-! ## The cursor -/

/-- What a scan has yet to come to when its `rid_` stands somewhere. -/
inductive Left (h : Heap) : Rid → List Tuple → Prop
  | past (slotId : Nat) : Left h ⟨nullPageId, slotId⟩ []
  | record {p slotId : Nat} {l : List Nat} {page : TablePage} (hne : p ≠ nullPageId) (hpage : h.page p = some page)
      (hfilled : page.Filled) (hslot : slotId < page.getRecordCount)
      (chain : h.ChainFrom page.nextPageId l) :
      Left h ⟨p, slotId⟩ (page.tuples p slotId ++ h.chainRows l)

/-- A scan starts at the first slot of the first page. -/
theorem ChainFrom.left (chain : h.ChainFrom first l) : Left h ⟨first, 0⟩ (h.chainRows l) := by
  cases l with
  | nil =>
      have hnull : first = nullPageId := chain.segment
      rw [hnull]
      exact .past 0
  | cons p l =>
      obtain ⟨hne, rfl, page, hpage, hfilled, hrest⟩ := chain.cons_cases
      rw [chainRows, List.flatMap_cons, hpage]
      exact .record hne hpage hfilled hfilled.1 hrest

/-- Past the record where it stands a cursor has the others left. -/
theorem Left.step (left : Left h rid rest) (hne : rid.pageId ≠ nullPageId) :
    ∃ page found rest', h.page rid.pageId = some page ∧ page.getRecord rid.slotId = some found ∧
      rest = ⟨found, rid⟩ :: rest' ∧ Left h (Sql.TableScan.advance page rid) rest' := by
  cases left with
  | past => exact absurd rfl hne
  | @record p slotId l page _ hpage hfilled hslot chain =>
      obtain ⟨found, hfound⟩ := hfilled.2 slotId hslot
      refine ⟨page, found, page.tuples p (slotId + 1) ++ h.chainRows l, hpage, hfound, ?_, ?_⟩
      · rw [TablePage.tuples_of_lt hslot hfound]
        rfl
      · by_cases hnext : slotId + 1 < page.getRecordCount
        · rw [Sql.TableScan.advance, if_pos hnext]
          exact .record hne hpage hfilled hnext chain
        · rw [Sql.TableScan.advance, if_neg hnext, TablePage.tuples_of_le (Nat.le_of_not_lt hnext)]
          exact chain.left

end Heap

/-! ## The calls -/

namespace Sql

open EStateM

/-- `TableScan` of a table from its first page on. -/
def tableScan (oid : Nat) (skips : RecordHeader → Bool) : Volcano.Iter SqlError Database Tuple where
  State := Rid
  init := do
    let table ← getTable oid
    return ⟨table.firstPageId, 0⟩
  next := TableScan.getNextRecord oid skips

section

variable {σ : Database} {oid fuel : Nat} {table : Table} {skips : RecordHeader → Bool} {rid : Rid}
  {rest : List Tuple} {l : List Nat}

/-- The records that a scan returns. -/
def visible (skips : RecordHeader → Bool) (rows : List Tuple) : List Tuple :=
  rows.filter fun tuple => !skips tuple.record.header

/-- A call returns the first visible record of those left, and leaves those after it. -/
theorem getNextRecord_of_left (htable : σ.tables.find? oid = some table)
    (left : (σ.heap oid).Left rid rest) (hfuel : rest.length < fuel) :
    ∃ rid' rest', TableScan.getNextRecord oid skips fuel rid σ =
        .ok ((visible skips rest).head?, rid') σ ∧
      (σ.heap oid).Left rid' rest' ∧ visible skips rest' = (visible skips rest).tail ∧
      rest'.length ≤ rest.length := by
  induction fuel generalizing rid rest with
  | zero => exact absurd hfuel (Nat.not_lt_zero _)
  | succ fuel ih =>
      by_cases hnull : rid.pageId = nullPageId
      · have hempty : rest = [] := by
          cases left with
          | past => rfl
          | record hne => exact absurd hnull hne
        subst hempty
        refine ⟨rid, [], ?_, left, rfl, Nat.le_refl _⟩
        rw [TableScan.getNextRecord, if_pos hnull]
        rfl
      · obtain ⟨page, found, rest', hpage, hfound, rfl, left'⟩ := left.step hnull
        rw [List.length_cons] at hfuel
        have hcall : TableScan.getNextRecord oid skips (fuel + 1) rid σ =
            (if skips found.header then
              TableScan.getNextRecord oid skips fuel (TableScan.advance page rid)
            else
              return (some ⟨found, rid⟩, TableScan.advance page rid)) σ := by
          rw [TableScan.getNextRecord, if_neg hnull, bind_apply, getPage_of_table htable hpage]
          simp only [hfound]
        rw [hcall]
        cases hskips : skips found.header with
        | true =>
            obtain ⟨rid', rest'', hrun, hleft, hvisible, hlength⟩ := ih left' (by omega)
            have hrest : visible skips (⟨found, rid⟩ :: rest') = visible skips rest' := by
              rw [visible, List.filter_cons_of_neg (by simp [hskips])]
              rfl
            rw [hrest]
            refine ⟨rid', rest'', hrun, hleft, hvisible, ?_⟩
            rw [List.length_cons]
            omega
        | false =>
            have hrest : visible skips (⟨found, rid⟩ :: rest') =
                ⟨found, rid⟩ :: visible skips rest' := by
              rw [visible, List.filter_cons_of_pos (by simp [hskips])]
              rfl
            rw [hrest]
            exact ⟨_, rest', rfl, left', rfl, Nat.le_succ _⟩

/-- From a place on the calls return the visible records that are left. -/
theorem serves_of_left (htable : σ.tables.find? oid = some table)
    (left : (σ.heap oid).Left rid rest) (hfuel : rest.length < fuel) :
    (tableScan oid skips).Serves fuel σ rid (visible skips rest) := by
  generalize hrows : visible skips rest = rows
  induction rows generalizing rid rest with
  | nil =>
      refine ⟨fun rid => ∃ rest, (σ.heap oid).Left rid rest ∧ rest.length < fuel ∧
        visible skips rest = [], ⟨rest, left, hfuel, hrows⟩, ?_⟩
      rintro rid ⟨rest, left, hfuel, hrows⟩
      obtain ⟨rid', rest', hrun, left', hvisible, hlength⟩ :=
        getNextRecord_of_left htable left hfuel
      rw [hrows] at hrun hvisible
      exact ⟨rid', hrun, rest', left', by omega, hvisible⟩
  | cons tuple rows ih =>
      obtain ⟨rid', rest', hrun, left', hvisible, hlength⟩ :=
        getNextRecord_of_left htable left hfuel
      rw [hrows] at hrun hvisible
      exact ⟨rid', hrun, ih left' (by omega) hvisible⟩

/-- A scan returns the visible records in the order of the chain and the slots, each once and
with its place, and then none on every call. -/
theorem tableScan_gives (htable : σ.tables.find? oid = some table)
    (chain : (σ.heap oid).ChainFrom table.firstPageId l)
    (hfuel : ((σ.heap oid).chainRows l).length < fuel) (xid cid : Nat) (level : IsolationLevel)
    (activeXids : List Nat) :
    (tableScan oid fun header => canGet header xid cid level activeXids).Gives fuel σ
        (((σ.heap oid).chainRows l).filter fun tuple =>
          !canGet tuple.record.header xid cid level activeXids) ∧
      (((σ.heap oid).chainRows l).map Tuple.rid).Nodup := by
  refine ⟨⟨⟨table.firstPageId, 0⟩, ?_, serves_of_left htable chain.left hfuel⟩, chain.nodup_rids⟩
  change (getTable oid >>= _) σ = _
  rw [bind_apply, getTable_eq htable]
  rfl

end

/-- A page with some records, each in a slot. -/
def pageOf (nextPageId : Nat) (records : List Record) : TablePage where
  pageLsn := 0
  nextPageId := nextPageId
  lower := pageHeaderSize + sizeofSlot * records.length
  upper := dbPageSize
  slots s := records[s]?.map fun record => ⟨⟨0, 0⟩, record⟩

theorem pageOf_filled {nextPageId : Nat} {records : List Record} (hne : records ≠ [])
    (hlength : records.length < 2 ^ 16) : (pageOf nextPageId records).Filled := by
  have hcount : (pageOf nextPageId records).getRecordCount = records.length := by
    simp only [pageOf, TablePage.getRecordCount, pageHeaderSize, sizeofSlot]
    omega
  rw [TablePage.Filled, hcount]
  refine ⟨List.length_pos_iff.mpr hne, fun s hs => ⟨records[s], ?_⟩⟩
  change (records[s]?.map _).map StoredRecord.record = _
  rw [List.getElem?_eq_getElem hs]
  rfl

/-- A table whose first page is page 4, which leads to page 1. -/
def twoPages : Database where
  pages key :=
    if key = ⟨7, 4⟩ then
      some (pageOf 1 [⟨⟨true, 2, 3, 0⟩, [1]⟩, ⟨⟨false, 2, nullXid, 1⟩, [2]⟩])
    else if key = ⟨7, 1⟩ then
      some (pageOf nullPageId [⟨⟨true, 2, 8, 0⟩, [3]⟩, ⟨⟨false, 8, nullXid, 0⟩, [4]⟩])
    else
      none
  tables := [(7, ⟨7, 1, 4⟩)]
  txn := { nextXid := 10 }

/-- Transaction 9 reads while transaction 8 is active. -/
theorem tableScan_gives_twoPages :
    (tableScan 7 fun header => canGet header 9 0 .readCommitted [8, 9]).Gives 5 twoPages
      [⟨⟨⟨false, 2, nullXid, 1⟩, [2]⟩, ⟨4, 1⟩⟩, ⟨⟨⟨true, 2, 8, 0⟩, [3]⟩, ⟨1, 0⟩⟩] := by
  have chain : (twoPages.heap 7).ChainFrom 4 [4, 1] := by
    refine ⟨⟨by decide, rfl, 1, rfl, by decide, rfl, nullPageId, rfl, rfl⟩, ?_⟩
    simp only [List.forall_mem_cons]
    refine ⟨?_, ?_, nofun⟩
    · rintro _ ⟨⟩
      exact pageOf_filled (List.cons_ne_nil _ _) (by decide)
    · rintro _ ⟨⟩
      exact pageOf_filled (List.cons_ne_nil _ _) (by decide)
  have htable : twoPages.tables.find? 7 = some ⟨7, 1, 4⟩ := rfl
  have hrows : ((twoPages.heap 7).chainRows [4, 1]).length < 5 := by decide
  exact (tableScan_gives htable chain hrows 9 0 .readCommitted [8, 9]).1

end Sql

end HuaDB
